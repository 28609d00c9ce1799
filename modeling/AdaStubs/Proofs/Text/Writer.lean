import AdaStubs.Text.Writer

/-!
# What writing adds

Code that is given to a writer is added to its text, each line as deep as it stands in the code below the depth of the
writer; nothing else of the writer changes.
-/

namespace AdaStubs

theorem Writer.write_text (w : Writer) (code : Code) : (w.write code).text =
    w.text ++ String.join (code.map fun l => lineText w.width (w.depth + l.depth) l.text) := by
  induction code generalizing w with
  | nil => simp [write]
  | cons l code ih =>
    have rest := ih (w.raw (lineText w.width (w.depth + l.depth) l.text))
    simp only [raw, String.append_assoc] at rest
    simpa [write, raw, String.join_cons] using rest

theorem Code.render_eq (code : Code) (width depth : Nat) :
    code.render width depth = String.join (code.map fun l => Writer.lineText width (depth + l.depth) l.text) := by
  simp [render, Writer.write_text, Writer.start]

theorem Writer.write_eq (w : Writer) (code : Code) :
    w.write code = { w with text := w.text ++ code.render w.width w.depth } := by
  have frame : (w.write code).width = w.width ∧ (w.write code).depth = w.depth := by
    induction code generalizing w with
    | nil => exact ⟨rfl, rfl⟩
    | cons l code ih => exact ih (w.raw (lineText w.width (w.depth + l.depth) l.text))
  have text : (w.write code).text = w.text ++ code.render w.width w.depth := by
    rw [write_text, Code.render_eq]
  rw [← text, ← frame.1, ← frame.2]

namespace Code

variable (code more : Code) (width depth : Nat)

@[simp] theorem render_nil : render [] width depth = "" := rfl

@[simp] theorem render_append : render (code ++ more) width depth = code.render width depth ++ more.render width depth := by
  simp [render_eq, String.join_append]

@[simp] theorem render_line (text : String) : (line text).render width depth = Writer.lineText width depth text := by
  simp [render_eq, line]

@[simp] theorem render_nest : (nest code).render width depth = code.render width (depth + 1) := by
  have deeper (l : Line) : depth + (l.depth + 1) = depth + 1 + l.depth := by omega
  simp [render_eq, nest, Function.comp_def, deeper]

end Code

/-- A block of code is what a writer makes of the code inside it, one level deeper. -/
theorem Writer.write_block (w : Writer) (opening closing : String) (body : Code) :
    w.write (Code.block opening closing body) = (w.block opening closing fun inner => ((), inner.write body)).2 := by
  simp [write_eq, Code.block, block, nest, line, raw, String.append_assoc]

end AdaStubs
