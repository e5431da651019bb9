-- Runs over workspaces from which disabled blocks for values have been unplugged. Nothing but
-- comments comes of such a block: when it and all that hangs on it have none, every run comes to
-- what it comes to without them, and fails where it fails without them.
import BlockCode.Proofs.Generation.Remarks
import BlockCode.Proofs.Workspace.Unplug

namespace BlockCode

open BlockCode.Language

/-! ## Trees without blocks of which nothing comes -/

namespace Chain

@[simp] theorem head?_unplugged (c : Chain) : c.unplugged.head? = c.head? := by
  cases c <;> rfl

@[simp] theorem head?_silenced (c : Chain) : c.silenced.head? = c.head? := by
  cases c <;> rfl

theorem comment_hushed (c : Chain) : ∀ b ∈ c.hushed.blocks, b.comment = .null := by
  induction c using Chain.inductionOn with
  | nil =>
    intro b hb
    cases hb
  | cons b inputs next hin hnext =>
    have hinputs : ∀ x ∈ inputs.hushed.blocks, x.comment = .null := by
      clear hnext
      induction inputs using Inputs.inductionOn with
      | nil =>
        intro x hx
        cases hx
      | cons name kind target rest ih =>
        intro x hx
        rw [Inputs.hushed, Inputs.blocks, List.mem_append] at hx
        rcases hx with hx | hx
        · exact hin.1 x hx
        · exact ih hin.2 x hx
    intro x hx
    rw [Chain.hushed, Chain.blocks, List.mem_cons, List.mem_append] at hx
    rcases hx with rfl | hx | hx
    · rfl
    · exact hinputs x hx
    · exact hnext x hx

/-- Blocks without comments may as well not be there, when comments are collected. -/
theorem comments_unplugged (c : Chain) : c.unplugged.comments = c.silenced.comments := by
  rw [comments_eq, comments_eq]
  induction c using Chain.inductionOn with
  | nil => rfl
  | cons b inputs next hin hnext =>
    have hinputs : said inputs.unplugged.blocks = said inputs.silenced.blocks := by
      clear hnext
      induction inputs using Inputs.inductionOn with
      | nil => rfl
      | cons name kind target rest ih =>
        rw [Inputs.unplugged, Inputs.silenced, Inputs.blocks, Inputs.blocks, said_append, said_append,
          ih hin.2]
        split
        · rw [said_nothing target.comment_hushed]
          rfl
        · rw [hin.1]
    rw [Chain.unplugged, Chain.silenced, Chain.blocks, Chain.blocks, ← List.singleton_append,
      said_append, said_append, hinputs, hnext, ← said_append, ← said_append, List.singleton_append]

end Chain

namespace Language

variable {L : Language} {nested : Workspace → Action String} {b : Block} {inputs : Inputs}

/-- What is plugged into an input may be the one as well as the other. -/
structure Same (L : Language) (nested : Workspace → Action String) (c c' : Chain) : Prop where
  code : L.codeOf nested false c = L.codeOf nested false c'
  head : c.head? = c'.head? ∨ L.codeOf nested false c' = pure (.statements "")
  comments : c.comments = c'.comments

theorem Same.chained_eq {c c' : Chain} (h : L.Same nested c c') :
    chained c (L.codeOf nested false c) = chained c' (L.codeOf nested false c') := by
  rw [h.code]
  unfold chained
  rcases h.head with hhead | hempty
  · rw [hhead]
  · rw [hempty]
    rcases c.head? with _ | head <;> rcases c'.head? with _ | head' <;> simp only [pure_bind]

section Same

variable {f g : SlotKind → Chain → Chain}

/-- What is made of what is found under a name, when as much is made of the one as of the other. -/
theorem Same.found {α : Type}
    (h : ∀ kind, ∀ c ∈ inputs.targets kind, L.Same nested (f kind c) (g kind c)) (input : Value)
    {make : Option Plug → Action α}
    (hmake : ∀ n kind c, L.Same nested (f kind c) (g kind c) →
      make (some ⟨n, kind, f kind c, L.codeOf nested false (f kind c)⟩) =
        make (some ⟨n, kind, g kind c, L.codeOf nested false (g kind c)⟩)) :
    (Effect.lift (Plug.find (L.plugs nested (inputs.map f)) input) >>= make) =
      (Effect.lift (Plug.find (L.plugs nested (inputs.map g)) input) >>= make) := by
  rcases hname : input.asKey with fault | name
  · unfold Plug.find
    rw [hname]
    rfl
  · rw [find_input hname, find_input hname, Inputs.at?_map, Inputs.at?_map]
    rcases hat : inputs.at? name with _ | ⟨n, kind, c⟩
    · rfl
    · exact hmake n kind c (h kind c (Inputs.mem_targets_of_at? hat))

theorem Same.plugged_eq (h : ∀ kind, ∀ c ∈ inputs.targets kind, L.Same nested (f kind c) (g kind c))
    (b : Block) (input outer : Value) :
    L.plugged b (L.plugs nested (inputs.map f)) input outer =
      L.plugged b (L.plugs nested (inputs.map g)) input outer := by
  unfold Language.plugged
  congr 1
  funext valid
  split
  · rfl
  · refine Same.found h input fun n kind c hsame => ?_
    simp only [hsame.code]
    rcases hsame.head with hhead | hempty
    · rw [hhead]
    · rw [hempty]
      rcases (f kind c).head? with _ | head <;> rcases (g kind c).head? with _ | head' <;>
        simp only [pure_bind, beq_self_eq_true, if_true]

theorem Same.nestedStatements_eq
    (h : ∀ kind, ∀ c ∈ inputs.targets kind, L.Same nested (f kind c) (g kind c)) (input : Value) :
    L.nestedStatements (L.plugs nested (inputs.map f)) input =
      L.nestedStatements (L.plugs nested (inputs.map g)) input := by
  unfold Language.nestedStatements
  refine Same.found h input fun n kind c hsame => ?_
  simp only [hsame.chained_eq]

theorem Same.pluggedComments_eq
    (h : ∀ kind, ∀ c ∈ inputs.targets kind, L.Same nested (f kind c) (g kind c)) (input : Value) :
    (Effect.lift (pluggedComments (L.plugs nested (inputs.map f)) input) : Action String) =
      Effect.lift (pluggedComments (L.plugs nested (inputs.map g)) input) := by
  have hfound : ∀ plugs : List Plug, (Effect.lift (pluggedComments plugs input) : Action String) =
      (Effect.lift (Plug.find plugs input) >>= fun found =>
        found.elim (pure "") fun plug => Effect.lift plug.target.comments) := by
    intro plugs
    unfold pluggedComments
    rcases Plug.find plugs input with fault | _ | plug <;> rfl
  rw [hfound, hfound]
  refine Same.found h input fun n kind c hsame => ?_
  simp only [Option.elim_some, hsame.comments]

theorem Same.answer (h : ∀ kind, ∀ c ∈ inputs.targets kind, L.Same nested (f kind c) (g kind c))
    (b : Block) (r : Request) : L.answer nested b (L.plugs nested (inputs.map f)) r =
      L.answer nested b (L.plugs nested (inputs.map g)) r := by
  cases r with
  | value input outer => exact Same.plugged_eq h b input outer
  | statements input => exact Same.nestedStatements_eq h input
  | comments input => exact Same.pluggedComments_eq h input
  | _ => rfl

theorem Same.codeOfBlock (hlooks : L.LooksAtNames)
    (h : ∀ kind, ∀ c ∈ inputs.targets kind, L.Same nested (f kind c) (g kind c)) (alone : Bool)
    (b : Block) (rest : Action String) :
    L.codeOfBlock nested alone b (inputs.map f) (L.plugs nested (inputs.map f)) rest =
      L.codeOfBlock nested alone b (inputs.map g) (L.plugs nested (inputs.map g)) rest := by
  have hcomments : L.commentsBefore b (L.plugs nested (inputs.map f)) =
      L.commentsBefore b (L.plugs nested (inputs.map g)) := by
    have hon : ((inputs.targets .value).map (f .value)).mapM L.commentOn =
        ((inputs.targets .value).map (g .value)).mapM L.commentOn := by
      have hsame := h .value
      generalize inputs.targets .value = targets at hsame
      induction targets with
      | nil => rfl
      | cons c rest ih =>
        have hc : L.commentOn (f .value c) = L.commentOn (g .value c) := by
          unfold commentOn
          rw [(hsame c List.mem_cons_self).comments]
        rw [List.map_cons, List.map_cons, List.mapM_cons, List.mapM_cons, hc,
          ih fun d hd => hsame d (List.mem_cons_of_mem c hd)]
    rw [commentsBefore_eq, commentsBefore_eq, Inputs.targets_map, Inputs.targets_map, hon]
  unfold Language.codeOfBlock
  rcases hrule : L.ruleFor b.type with fault | _ | rule
  · unfold ruleOf
    rw [hrule]
    rfl
  · unfold ruleOf
    rw [hrule]
    rfl
  · have hfound : L.ruleOf b = Effect.lift (.ok rule) := by
      unfold ruleOf
      rw [hrule]
      rfl
    have hanswer := funext (Same.answer h b)
    have hsame : rule b (inputs.map f) = rule b (inputs.map g) :=
      hlooks b rule hrule (inputs.map g) (inputs.map f) fun name => by
        rw [Inputs.has_map, Inputs.has_map]
    have hgo : ∀ {x y : Rule → Action Code}, x rule = y rule →
        (Effect.lift (.ok rule) >>= x) = (Effect.lift (.ok rule) >>= y) := fun h => h
    rw [hfound]
    refine hgo ?_
    simp only [Language.withSurroundings, hsame, hanswer, hcomments]

end Same

/-- Blocks that give values end their chains. -/
def ValuesEnd (b : Block) (_ : Inputs) (next : Chain) : Prop := b.givesValue = true → next = .nil

instance decidableValuesEnd (b : Block) (inputs : Inputs) (next : Chain) :
    Decidable (ValuesEnd b inputs next) :=
  inferInstanceAs (Decidable (b.givesValue = true → next = .nil))

/-- Nothing but comments comes of a block for a value that is disabled: where there are none, the
input may as well be empty. -/
theorem codeOf_unplugged (hlooks : L.LooksAtNames) {c : Chain} (hall : c.All ValuesEnd)
    (alone : Bool) : L.codeOf nested alone c.unplugged = L.codeOf nested alone c.silenced := by
  induction c using Chain.inductionOn generalizing alone with
  | nil => rfl
  | cons b inputs next hin hnext =>
    obtain ⟨-, hinputs, hbehind⟩ := Chain.all_cons.mp hall
    rw [Chain.unplugged, Chain.silenced]
    rcases hdisabled : b.isDisabled with _ | _
    · have hrest : chained next.unplugged (L.codeOf nested false next.unplugged) =
          chained next.silenced (L.codeOf nested false next.silenced) := by
        rw [hnext hbehind]
        unfold chained
        rw [next.head?_unplugged, next.head?_silenced]
      rw [codeOf_enabled hdisabled, codeOf_enabled hdisabled, hrest, Inputs.unplugged_eq,
        Inputs.silenced_eq]
      refine Same.codeOfBlock hlooks (fun kind c hc => ?_) alone b _
      have hwhole := hinputs.of_targets c hc
      split
      · rename_i hidles
        have hempty : L.codeOf nested false c.hushed = pure (.statements "") := by
          cases c with
          | nil => rfl
          | cons head below behind =>
            simp only [Chain.idlesIn, Chain.head?, Option.any_some, Block.isIdle, Bool.and_eq_true]
              at hidles
            rw [Chain.hushed, codeOf_disabled (show head.hushed.isDisabled = true from hidles.2.1),
              (Chain.all_cons.mp hwhole).1 hidles.2.2]
            rfl
        refine ⟨hempty.symm, Or.inr hempty, ?_⟩
        rw [comments_eq c.hushed, said_nothing c.comment_hushed]
        rfl
      · exact ⟨hin.of_targets c hc hwhole false,
          Or.inl (by rw [c.head?_unplugged, c.head?_silenced]), c.comments_unplugged⟩
    · rw [codeOf_disabled hdisabled, codeOf_disabled hdisabled]
      exact hnext hbehind false

/-- A pass over a workspace without disabled blocks for values comes to what it comes to when
these stay and lose their comments. -/
theorem pass_unplugged (hlooks : L.LooksAtNames) {w : Workspace} (hac : w.Acyclic) (hs : w.Sound)
    (hw : w.All ValuesEnd) : L.pass w.unplugged = L.pass w.silenced := by
  have hsections : ∀ tops : List Chain, (∀ top ∈ tops, top.All ValuesEnd) →
      (tops.map Chain.unplugged).mapM (L.section? fun _ => L.refuse) =
        (tops.map Chain.silenced).mapM (L.section? fun _ => L.refuse) := by
    intro tops htops
    induction tops with
    | nil => rfl
    | cons top rest ih =>
      have htop : L.section? (fun _ => L.refuse) top.unplugged =
          L.section? (fun _ => L.refuse) top.silenced := by
        unfold section?
        rw [codeOf_unplugged hlooks (htops top List.mem_cons_self), top.head?_unplugged,
          top.head?_silenced]
      rw [List.map_cons, List.map_cons, List.mapM_cons, List.mapM_cons, htop,
        ih fun c hc => htops c (List.mem_cons_of_mem top hc)]
  unfold pass passBody
  rw [hac.trees_unplugged hs, hac.trees_silenced hs]
  simp only [List.length_map, hsections w.trees hw]

end Language

end BlockCode
