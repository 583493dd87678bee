import Graft.Order
import Graft.Syntax.Node
import Graft.Text.Basic

/-! Patches to a text. They are recorded in any order and spliced in by their place; a patch that starts
before the end of one already spliced in, or ends past the text, is left out. -/

namespace Graft

/-- Put a text in the place of a span of a text. An empty span makes it an insertion. -/
structure Patch where
  span : Span
  text : Text
  deriving DecidableEq

namespace Patch

def insertion (offset : Nat) (text : Text) : Patch := ⟨⟨offset, offset⟩, text⟩

/-- Patches by their start; those with the same start stay in order. -/
def sort (patches : List Patch) : List Patch :=
  sortBy (fun patch other => patch.span.start ≤ other.span.start) patches

end Patch

namespace LineEnding

def lf : Text := ['\n']
def crlf : Text := ['\r', '\n']

/-- Write all line breaks of a text with one ending. Line feeds need no change. -/
def normalize (ending : Text) (text : Text) : Text :=
  if ending = lf then text else Text.replaceAll lf ending (Text.replaceAll crlf lf text)

/-- The line ending of a text is that of its first line. -/
def detect (text : Text) : Text :=
  match text with
  | [] => lf
  | '\r' :: '\n' :: _ => crlf
  | '\n' :: _ => lf
  | _ :: rest => detect rest

end LineEnding

/-- Recorded patches, the first recorded first. -/
structure PatchSet where
  patches : List Patch
  deriving DecidableEq

namespace PatchSet

def empty : PatchSet := ⟨[]⟩

def record (set : PatchSet) (patch : Patch) : PatchSet := ⟨set.patches ++ [patch]⟩

def isEmpty (set : PatchSet) : Bool := set.patches.isEmpty

def size (set : PatchSet) : Nat := set.patches.length

/-- Splice sorted patches into a text that is copied up to `done`. There is no result if a patch starts
or ends inside a character. -/
def splice (ending source : Text) : Nat → List Patch → Option Text
  | done, [] => Text.slice? done (Text.bytes source) source
  | done, patch :: patches =>
    if patch.span.start < done || Text.bytes source < patch.span.stop then splice ending source done patches
    else
      match Text.slice? done patch.span.start source with
      | none => none
      | some gap =>
        match splice ending source patch.span.stop patches with
        | none => none
        | some rest => some (gap ++ LineEnding.normalize ending patch.text ++ rest)

/-- Splice all patches into a text, writing their line breaks with one ending. -/
def applyWith (ending : Text) (set : PatchSet) (source : Text) : Option Text :=
  splice ending source 0 (Patch.sort set.patches)

def apply (set : PatchSet) (source : Text) : Option Text := set.applyWith LineEnding.lf source

end PatchSet
end Graft
