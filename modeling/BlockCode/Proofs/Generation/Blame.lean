-- Types of blocks that are told to have no rule. As long as no rule makes such a fault up,
-- they are the types of blocks in the tree at work.
import BlockCode.Proofs.Generation.Faults

namespace BlockCode

open BlockCode.Language

/-! ## What a fault blames -/

/-- The type that the language does not know. -/
def ErrorKind.unknownType? : ErrorKind → Option Value
  | unsupportedType _ type => some type
  | _ => none

/-- The type of blocks that is told to have no rule. -/
def Fault.unknownType? : Fault → Option Value
  | generation e => e.kind.unknownType?
  | _ => none

/-- If there is a fault, it blames none but these types. -/
def Blames {α : Type} (types : Value → Prop) (result : Except Fault α) : Prop :=
  ∀ fault type, result = .error fault → fault.unknownType? = some type → types type

/-- From every session, the work comes to nothing but such results. -/
def Accuses {α : Type} (types : Value → Prop) (x : Action α) : Prop := ∀ s, Blames types (x s).1

/-- The fault blames none but these types. -/
def Fault.BlamesOnly (types : Value → Prop) (fault : Fault) : Prop :=
  ∀ type, fault.unknownType? = some type → types type

theorem blames_iff {α : Type} {types : Value → Prop} {result : Except Fault α} :
    Blames types result ↔ Faults (Fault.BlamesOnly types) result :=
  ⟨fun h fault hfault type => h fault type hfault, fun h fault type hfault => h fault hfault type⟩

theorem Fault.Plain.unknownType? {fault : Fault} (h : fault.Plain) : fault.unknownType? = none := by
  cases fault with
  | generation e => exact absurd rfl (h e)
  | _ => rfl

theorem Fault.BlamesOnly.of_none {types : Value → Prop} {fault : Fault}
    (h : fault.unknownType? = none) : fault.BlamesOnly types := by
  intro type htype
  rw [h] at htype
  cases htype

/-- Of all that is raised at a block, only one error says that a type has no rule. -/
theorem Language.Raised.unknownType? {L : Language} {nested : Workspace → Action String}
    {b : Block} {inputs : Inputs} {next : Chain} {e : GenerationError}
    (h : L.Raised nested b inputs next e) {type : Value} (htype : e.kind.unknownType? = some type) :
    type = b.type ∧ L.ruleFor b.type = .ok none := by
  cases h with
  | unsupported hrule =>
    cases htype
    exact ⟨rfl, hrule⟩
  | noCode hrule hcame =>
    unfold GenerationError.noCode at htype
    simp only at htype
    split at htype <;> cases htype
  | _ => cases htype

/-! ## Rules -/

/-- The script blames a type only when an answer did. These types were blamed before. -/
def Script.Relays {α : Type} (told : Value → Prop) : Script α → Prop
  | .done result => Blames told result
  | .ask _ next => ∀ answer, (next answer).Relays fun type =>
      told type ∨ ∃ fault, answer = .error fault ∧ fault.unknownType? = some type

/-- A rule can have nothing translated but what is plugged into its block, and it says of no
other type that it has no rule. What is done to an expression that stands alone says so of
no type at all. -/
structure Language.Relays (L : Language) : Prop where
  rules : ∀ b rule, L.ruleFor b.type = .ok (some rule) →
    ∀ inputs, (rule b inputs).Relays fun _ => False
  standing : ∀ text, Blames (fun _ => False) (L.standing text)

namespace Script

variable {α : Type} {told types : Value → Prop} {own : Fault → Prop} {x : Script α}

theorem Relays.raises (hx : x.Relays told) (h : ∀ type, told type → types type) :
    x.Raises (Fault.BlamesOnly types) := by
  induction x generalizing told with
  | done result => exact fun fault hfault type htype => h type (hx fault type hfault htype)
  | ask r next ih =>
    intro answer hanswer
    refine ih answer (hx answer) ?_
    rintro type (htold | ⟨fault, hfault, htype⟩)
    · exact h type htold
    · exact hanswer fault hfault type htype

theorem PassesOn.relays (hx : x.PassesOn own) (h : ∀ fault, own fault → fault.BlamesOnly told) :
    x.Relays told := by
  induction x generalizing own told with
  | done result => exact blames_iff.mpr (Faults.mono hx h)
  | ask r next ih =>
    intro answer
    refine ih answer (hx answer) ?_
    rintro fault (hown | htold) type htype
    · exact Or.inl (h fault hown type htype)
    · exact Or.inr ⟨fault, htold, htype⟩

end Script

/-- A pass blames the types of blocks in the trees of its workspace, and none that has a rule. -/
theorem Accuses.pass {L : Language} {types : Value → Prop} (hrules : L.Relays) {w : Workspace}
    (hw : ∀ top ∈ w.trees, ∀ b ∈ top.blocks, L.ruleFor b.type = .ok none → types b.type) :
    Accuses types (L.pass w) := by
  have hrisks : Risks (Fault.BlamesOnly types) (L.pass w) := by
    refine Risks.pass (fun fault hplain => .of_none hplain.unknownType?) (.of_none rfl) ?_ ?_ ?_
    · intro top htop b inputs next hpart rule hrule
      exact (hrules.rules b rule hrule inputs).raises nofun
    · intro top htop b inputs next hpart _ e hraised type htype
      obtain ⟨rfl, hrule⟩ := hraised.unknownType? htype
      refine hw top htop b ?_ hrule
      rw [Chain.blocks_eq]
      exact List.mem_filterMap.mpr ⟨_, hpart, rfl⟩
    · exact fun text => (blames_iff.mp (hrules.standing text)).mono fun fault h type htype =>
        absurd (h type htype) id
  exact fun s => blames_iff.mpr (hrisks s)

end BlockCode
