namespace TreePattern.Cli

/-- Where text is written to. Bytes are taken as long as there is room; once a write does not fit,
the bytes that did fit are kept and the write fails. -/
structure Sink where
  /-- The number of bytes that still fit; without one there is no end of room. -/
  room : Option Nat
  written : Array UInt8
  refusal : String

namespace Sink

def refusing (room : Option Nat) (refusal : String) : Sink := ⟨room, #[], refusal⟩

def empty (room : Option Nat) : Sink := refusing room "sink full"

def bytesOf (text : String) : List UInt8 :=
  text.toUTF8.data.toList

def write (sink : Sink) (text : String) : Sink × Bool :=
  let bytes := bytesOf text
  match sink.room with
  | none => ({ sink with written := sink.written ++ bytes }, true)
  | some room =>
    (⟨some (room - bytes.length), sink.written ++ bytes.take room, sink.refusal⟩,
      bytes.length ≤ room)

def writeAll (sink : Sink) : List String → Sink × Bool
  | [] => (sink, true)
  | text :: rest =>
    match sink.write text with
    | (sink, true) => sink.writeAll rest
    | (sink, false) => (sink, false)

end Sink

end TreePattern.Cli
