import AdaStubs.Ada.IndexNest
import AdaStubs.Proofs.Text.Writer

/-!
# The text of a loop nest

However many dimensions an array has, the lines that open the loops of its nest and the lines that close them pair up:
each loop is closed at the depth at which it was opened, and the element is visited between, below all of them.

Main statement: `render_balanced`.
-/

namespace AdaStubs.Ada.IndexNest

/-- The lines that open loops, each inside the one before. -/
def openings (array : String) (loops : List IndexLoop) : Code := loops.mapIdx fun k l => ⟨k, l.opening array⟩

/-- The lines that close as many loops as given, the innermost first. -/
def closings (count : Nat) : Code := (List.range count).reverse.map fun k => ⟨k, "end loop ;"⟩

theorem openings_cons (array : String) (l : IndexLoop) (inner : List IndexLoop) :
    openings array (l :: inner) = Code.line (l.opening array) ++ (openings array inner).nest := by
  refine List.ext_getElem (by simp [openings, Code.line, Code.nest]) fun k _ _ => ?_
  cases k <;> simp [openings, Code.line, Code.nest]

theorem closings_succ (count : Nat) : closings (count + 1) = (closings count).nest ++ Code.line "end loop ;" := by
  simp [closings, Code.line, Code.nest, List.range_succ_eq_map, Function.comp_def]

theorem openings_ofRank (array : String) (rank : Nat) : openings array (ofRank rank).loops =
    (List.range rank).map fun k => ⟨k, s!"for I{k + 1} in {array}'Range ({k + 1}) loop"⟩ := by
  have word (index : String) : "for " ++ ("I" ++ index) = "for I" ++ index := (String.append_assoc ..).symm
  refine List.ext_getElem (by simp [openings, ofRank]) fun k _ _ => ?_
  simp [openings, ofRank, IndexLoop.opening, toString, word]

theorem element_ofRank (array : String) (rank : Nat) : (ofRank rank).element array =
    if rank = 0 then array
    else array ++ " (" ++ ", ".intercalate ((List.range rank).map fun k => s!"I{k + 1}") ++ ")" := by
  simp [element, indexed, ofRank, Function.comp_def]

/-- The loops are opened, then `visit` takes over at the depth inside them, and what it leaves is closed again. -/
theorem renderLoops_eq (array : String) {visit : Writer → Writer} (level : ∀ w, (visit w).depth = w.depth)
    (loops : List IndexLoop) (w : Writer) :
    let visited := visit
      { w with depth := w.depth + loops.length, text := w.text ++ (openings array loops).render w.width w.depth }
    renderLoops array visit loops w =
      { visited with
        depth := w.depth
        text := visited.text ++ (closings loops.length).render visited.width w.depth } := by
  induction loops generalizing w with
  | nil =>
    have unmoved : visit w = { visit w with depth := w.depth } := by rw [← level w]
    simpa [renderLoops, openings, closings] using unmoved
  | cons l inner ih =>
    -- The inner loops find the writer one level deeper, behind the line that opens this one; their visitor leaves that
    -- level as it was, so the closing line stands where the opening one does.
    have deeper : w.depth + 1 + inner.length = w.depth + (inner.length + 1) := by omega
    rw [renderLoops]
    simp [Writer.block, Writer.nest, Writer.line, Writer.raw, ih, openings_cons, closings_succ, deeper,
      String.append_assoc]

theorem write_wrap (w : Writer) (array : String) (statements : Code) (loops : List IndexLoop) :
    w.write (wrap array statements loops) = renderLoops array (·.write statements) loops w := by
  induction loops generalizing w with
  | nil => rfl
  | cons l inner ih =>
    rw [wrap, renderLoops, Writer.write_block]
    simp only [ih]

theorem write_code (nest : IndexNest) (w : Writer) (array : String) (body : String → Code) :
    w.write (nest.code array body) = nest.render w array fun inner element => inner.write (body element) :=
  write_wrap w array (body (nest.element array)) nest.loops

/-- A nest adds one line for each loop, from the depth of the writer on, then what the one visit adds below them, then
a closing line for each loop on the way back; a visitor that returns to its depth leaves the writer as deep as it was.
The nests that the subprograms of an array hold as code are written so too. -/
theorem render_balanced (rank : Nat) (array : String) (w : Writer) (visit : Writer → String → Writer)
    (level : ∀ inner element, (visit inner element).depth = inner.depth) :
    let opened : Code := (List.range rank).map fun k => ⟨k, s!"for I{k + 1} in {array}'Range ({k + 1}) loop"⟩
    let closed : Code := (List.range rank).reverse.map fun k => ⟨k, "end loop ;"⟩
    let element := if rank = 0 then array
      else array ++ " (" ++ ", ".intercalate ((List.range rank).map fun k => s!"I{k + 1}") ++ ")"
    let visited := visit { w with depth := w.depth + rank, text := w.text ++ opened.render w.width w.depth } element
    let result := (ofRank rank).render w array visit
    result = { visited with depth := w.depth, text := visited.text ++ closed.render visited.width w.depth } ∧
    (∀ output, visited.text = w.text ++ opened.render w.width w.depth ++ output → visited.width = w.width →
      result.text = w.text ++ (opened.render w.width w.depth ++ output ++ closed.render w.width w.depth)) ∧
    ∀ body, w.write ((ofRank rank).code array body) =
      (ofRank rank).render w array fun inner element => inner.write (body element) := by
  intro opened closed element visited result
  have whole : result =
      { visited with depth := w.depth, text := visited.text ++ closed.render visited.width w.depth } := by
    have length : (ofRank rank).loops.length = rank := by simp [ofRank]
    have named : (ofRank rank).element array = element := element_ofRank array rank
    have loops := renderLoops_eq array (level · element) (ofRank rank).loops w
    rw [length, openings_ofRank] at loops
    change renderLoops array (visit · ((ofRank rank).element array)) (ofRank rank).loops w = _
    rw [named]
    exact loops
  refine ⟨whole, fun output appended kept => ?_, write_code _ w array⟩
  rw [whole]
  simp only [appended, kept, String.append_assoc]

theorem nest_of_two_loops :
    let visit (inner : Writer) (element : String) : Writer := inner.line s!"Marshall ({element}, S) ;"
    (∀ inner element, (visit inner element).depth = inner.depth) ∧
    (ofRank 2).render ⟨3, 1, "begin\n"⟩ "A" visit = ⟨3, 1, "begin\n" ++
      "   for I1 in A'Range (1) loop\n" ++
      "      for I2 in A'Range (2) loop\n" ++
      "         Marshall (A (I1, I2), S) ;\n" ++
      "      end loop ;\n" ++
      "   end loop ;\n"⟩ := by
  intro visit
  refine ⟨fun _ _ => rfl, (render_balanced 2 "A" ⟨3, 1, "begin\n"⟩ visit fun _ _ => rfl).1.trans ?_⟩
  decide

end AdaStubs.Ada.IndexNest
