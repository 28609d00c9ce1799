import AdaStubs.Text.Writer

/-!
# Subprogram bodies and access types
-/

namespace AdaStubs.Ada

/-- A body with its declarative part, and a blank line after it. -/
def subprogramBody (profile name : String) (declarations : List String) (statements : Code) : Code :=
  Code.line s!"{profile} is" ++ (Code.lines declarations).nest ++ Code.line "begin"
    ++ statements.nest ++ Code.line s!"end {name} ;" ++ Code.blank

/-- The access type of `name` and its deallocation procedure. -/
def accessType (name : String) : Code :=
  Code.lines
    [s!"type {name}_Ptr is access {name} ;",
     s!"procedure Free is new Ada.Unchecked_Deallocation ({name}, {name}_Ptr) ;"]

/-- The statements, or the null statement if there are none. -/
def orNull (statements : List String) : List String :=
  if statements.isEmpty then ["null ;"] else statements

/-- The variable in which a size is summed up. -/
def sizeVariable (sizeType : String) : String := s!"Tmp : {sizeType} := Initial_Offset ;"

/-- The loop over the `N` values whose size is asked for. -/
def forEachValue (statements : Code) : Code :=
  Code.block "for J in 1 .. N loop" "end loop ;" statements

end AdaStubs.Ada
