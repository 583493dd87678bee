import Graft.Edit.Config
import Graft.Json.Record

/-! Configurations as JSON. Fields that are not there have their defaults. -/

namespace Graft

open Json (Field Record Reader Value)

def Quote.read : Reader Quote := Json.variant ([.single, .double].map fun quote => (Quote.name quote, quote))

/-- Fields of a style that have been read. -/
structure Style.Draft where
  indentWidth : Option Nat := none
  quote : Option Quote := none

def Style.record : Record Style.Draft Style where
  name := "PrintConfig".toList
  blank := {}
  fields := [
    .of "indentWidth" false (·.indentWidth) (fun draft value => { draft with indentWidth := some value })
      (fun _ => Json.size),
    .of "quoteStyle" false (·.quote) (fun draft value => { draft with quote := some value }) Quote.read]
  finish draft :=
    let default : Style := {}
    .ok ⟨draft.indentWidth.getD default.indentWidth, draft.quote.getD default.quote⟩

structure Config.Draft where
  maxBytes : Option Nat := none
  maxPreviewLines : Option Nat := none
  style : Option Style := none

def Config.record : Record Config.Draft Config where
  name := "EditConfig".toList
  blank := {}
  fields := [
    .of "maxContentBytes" false (·.maxBytes) (fun draft value => { draft with maxBytes := some value })
      (fun _ => Json.size),
    .of "maxPreviewLines" false (·.maxPreviewLines) (fun draft value => { draft with maxPreviewLines := some value })
      (fun _ => Json.size),
    .of "print" false (·.style) (fun draft value => { draft with style := some value }) Style.record.read]
  finish draft :=
    let default : Config := {}
    .ok ⟨draft.maxBytes.getD default.maxBytes, draft.maxPreviewLines.getD default.maxPreviewLines,
      draft.style.getD default.style⟩

def Config.ofJson (text : Text) : Except Json.Fault Config := Json.decode Config.record.read text

def Json.Value.ofNat (n : Nat) : Value := .number (.integer n)

def Style.toJson (style : Style) : Value :=
  .object [("indentWidth".toList, .ofNat style.indentWidth), ("quoteStyle".toList, .string style.quote.name)]

def Config.toJson (config : Config) : Value :=
  .object [("maxContentBytes".toList, .ofNat config.maxBytes),
    ("maxPreviewLines".toList, .ofNat config.maxPreviewLines), ("print".toList, config.style.toJson)]

end Graft
