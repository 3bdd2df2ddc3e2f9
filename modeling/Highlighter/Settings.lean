import Highlighter.Json.Decode

/-!
The settings that bound how much is labeled at a time.
-/

namespace Highlighter

structure Settings where
  /-- The least time between two refreshes of one line, in milliseconds. -/
  minRefreshInterval : Nat := 500
  linesPerFrame : Nat := 20
  /-- How many levels of embedded text are labeled. -/
  maxNesting : Nat := 8
  deriving DecidableEq, Repr

namespace Settings

/-- A frame refreshes at least one line. -/
def frameBudget (s : Settings) : Nat := max s.linesPerFrame 1

def shape : Json.Shape Settings where
  name := "LabelerConfig"
  initial := {}
  fields := [
    Json.field "min_refresh_interval_ms" (Json.decodeNat "u64")
      (fun a s ↦ { s with minRefreshInterval := a }),
    Json.field "lines_per_frame" (Json.decodeNat "usize") (fun a s ↦ { s with linesPerFrame := a }),
    Json.field "max_dispatch_depth" (Json.decodeNat "usize") (fun a s ↦ { s with maxNesting := a })]

def ofText (t : Text) : Except Json.DecodeError Settings := Json.decodeText shape.decode t

end Settings

end Highlighter
