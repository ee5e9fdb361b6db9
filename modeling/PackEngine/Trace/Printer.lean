import PackEngine.Trace.Event

/-! The text of a trace: one line for each event, indented by call depth. The end of a command's
line is held back, so that the result of a leaf that returns next is put on it. -/
namespace PackEngine

/-- A byte sink that may have room for only so many bytes. -/
structure Sink where
  written : ByteArray := ByteArray.empty
  room : Option Nat := none

namespace Sink

/-- Takes the bytes that still fit, and says whether all did. -/
def put (sink : Sink) (text : String) : Sink × Bool :=
  let bytes := text.toUTF8
  match sink.room with
  | none => ({ sink with written := sink.written ++ bytes }, true)
  | some room =>
      if bytes.size ≤ room then
        ({ written := sink.written ++ bytes, room := some (room - bytes.size) }, true)
      else ({ written := sink.written ++ bytes.extract 0 room, room := some 0 }, false)

end Sink

structure Printer where
  sink : Sink := {}
  lastIndent : Nat := 0
  /-- A command's line is still open. -/
  waiting : Bool := false
  /-- A write failed and nobody has been told; later writes are dropped. -/
  failed : Bool := false

/-- What a printer can be asked for. -/
inductive PrintItem where
  | event (event : TraceEvent)
  /-- Output sent by a command while tracing. -/
  | message (text : String)
  /-- A bare line. -/
  | heading (text : String)
  | flush
deriving DecidableEq, Repr

namespace Printer

def put (p : Printer) (text : String) : Printer :=
  if p.failed then p
  else
    let (sink, fits) := p.sink.put text
    { p with sink := sink, failed := !fits }

/-- Four blanks for each level, the outermost included. -/
def margin (level : Nat) : String := String.ofList (List.replicate (4 * (level + 1)) ' ')

def indent (level : Nat) (p : Printer) : Printer := p.put (margin level)

def indentAndSave (level : Nat) (p : Printer) : Printer :=
  { p.indent level with lastIndent := level }

def newLine (p : Printer) : Printer :=
  if p.waiting then { p.put "\n" with waiting := false } else p

def event (p : Printer) : TraceEvent → Printer
  | .command depth text =>
      { ((p.newLine.indentAndSave depth).put ("[C] " ++ text)) with waiting := true }
  | .returned depth text value =>
      if p.waiting then
        { p.put (" -> " ++ toString value.toInt ++ "\n") with waiting := false }
      else
        (p.indentAndSave depth).put ("[R = " ++ toString value.toInt ++ "] " ++ text ++ "\n")
  | .call depth function lines =>
      (p.newLine.indentAndSave depth).put
        ("[F] " ++ function.render ++ " size=" ++ toString lines ++ "\n")
  | .error message =>
      let p := p.newLine
      (p.indentAndSave (p.lastIndent + 1)).put ("[E] " ++ message ++ "\n")

/-- Ends an open line; says whether all writes since the last flush succeeded. -/
def flush (p : Printer) : Bool × Printer :=
  let p := p.newLine
  (!p.failed, { p with failed := false })

def item (p : Printer) : PrintItem → Printer
  | .event e => p.event e
  | .message text =>
      let p := p.newLine
      (p.indent (p.lastIndent + 1)).put ("[M] " ++ text ++ "\n")
  | .heading text => p.newLine.put (text ++ "\n")
  | .flush => p.flush.2

end Printer

end PackEngine
