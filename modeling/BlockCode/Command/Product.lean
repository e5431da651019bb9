-- What a pass makes, as it is to be written. Nothing in a program tells where its characters
-- came from, so whether it holds halves is found out by a second pass in the same session that
-- shows another mark in their place: the two programs differ in the marks that they hold.
import BlockCode.Generation.Pass

namespace BlockCode

/-- The block, with another mark in the place of the halves in its texts. -/
def Block.showing (mark : Char) (b : Block) : Block :=
  { b with
    type := b.type.showing mark
    id := b.id.showing mark
    fields := b.fields.showing mark
    comment := b.comment.showing mark }

/-- The workspace, with another mark in the place of the halves in its texts. -/
def Workspace.showing (mark : Char) (w : Workspace) : Workspace :=
  { w with
    nodes := w.nodes.map fun n =>
      { n with
        block := n.block.showing mark
        slots := n.slots.map fun s => { s with name := s.name.showing mark } } }

/-- The language, with another mark in the place of the halves in its settings. -/
def Language.showing (mark : Char) (L : Language) : Language :=
  { L with
    config := { L.config with
      indent := L.config.indent.showing mark
      commentMarker := L.config.commentMarker.showing mark } }

/-- The program of a workspace. -/
structure Product where
  text : String
  /-- The program holds halves, for which there are no bytes. -/
  torn : Bool := false
deriving DecidableEq, Repr

namespace Product

/-- What a file holds that the program was written into. The file is emptied before it comes to
light that there are no bytes for the program. -/
def written (p : Product) : String := if p.torn then "" else p.text

theorem written_whole {p : Product} (h : p.torn = false) : p.written = p.text :=
  if_neg (by simp [h])

theorem written_torn {p : Product} (h : p.torn = true) : p.written = "" := if_pos h

end Product

namespace Language

/-- The mark that a second pass shows. -/
def otherMark : Char := '\ufffc'

/-- The program that a second pass with the other mark makes, if it makes one. -/
def otherwise? (L : Language) (w : Workspace) (s : Session) : Option String :=
  ((L.showing otherMark).pass (w.showing otherMark) s).1.toOption

/-- One pass, and whether its program holds halves. -/
def product (L : Language) (w : Workspace) : Action Product := fun s =>
  let (result, after) := L.pass w s
  (result.map fun text => { text, torn := L.otherwise? w s != some text }, after)

theorem product_fst (L : Language) (w : Workspace) (s : Session) : (L.product w s).1 =
    (L.pass w s).1.map fun text => { text, torn := L.otherwise? w s != some text } := rfl

section Whole

variable {L : Language} {w : Workspace} {s : Session} {code : Product}

theorem product_ok_iff : (L.product w s).1 = .ok code ↔
    (L.pass w s).1 = .ok code.text ∧ code.torn = (L.otherwise? w s != some code.text) := by
  obtain ⟨text, torn⟩ := code
  rw [product_fst]
  rcases (L.pass w s).1 with fault | made
  · exact ⟨nofun, nofun⟩
  · constructor
    · rintro ⟨⟩
      exact ⟨rfl, rfl⟩
    · rintro ⟨⟨⟩, htorn⟩
      exact congrArg (fun torn => Except.ok (Product.mk text torn)) htorn.symm

/-- Where no text holds halves, there are none in the program. -/
theorem product_whole (hL : L.showing otherMark = L) (hw : w.showing otherMark = w)
    (s : Session) : (L.product w s).1 = (L.pass w s).1.map fun text => { text } := by
  rw [product_fst, otherwise?, hL, hw]
  rcases (L.pass w s).1 with fault | text
  · rfl
  · exact congrArg (fun torn => Except.ok (Product.mk text torn)) (bne_self_eq_false (some text))

theorem whole_of_product (hL : L.showing otherMark = L) (hw : w.showing otherMark = w)
    (h : (L.product w s).1 = .ok code) : code.torn = false := by
  obtain ⟨hpass, htorn⟩ := product_ok_iff.mp h
  rw [htorn, otherwise?, hL, hw, hpass]
  exact bne_self_eq_false (some code.text)

end Whole

end Language
end BlockCode
