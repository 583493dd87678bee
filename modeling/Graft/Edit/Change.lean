import Graft.Patch
import Graft.Syntax.Parse

/-! What an edit does to a program: at most one patch, and whether it counts as done. -/

namespace Graft

structure Change where
  applied : Bool
  patch : Option Patch
  deriving DecidableEq

namespace Change

def miss : Change := ⟨false, none⟩

def done (patch : Patch) : Change := ⟨true, some patch⟩

end Change

/-- A program and patches to it that are not spliced in yet. -/
structure Document where
  program : Program
  patches : PatchSet

namespace Document

def parse (source : Text) : Except ParseError Document :=
  (Program.parse source).map fun program => ⟨program, .empty⟩

def isModified (document : Document) : Bool := !document.patches.isEmpty

def record (document : Document) (patch : Patch) : Document :=
  { document with patches := document.patches.record patch }

/-- The text with all patches spliced in. Their lines end as the first line of the text does. There is no
result if a patch cuts a character. -/
def print (document : Document) : Option Text :=
  document.patches.applyWith (LineEnding.detect document.program.source) document.program.source

end Document
end Graft
