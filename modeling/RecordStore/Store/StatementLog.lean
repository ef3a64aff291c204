import RecordStore.Text.OctetWriter
import RecordStore.Text.Utf8

/-!
Logs of statements. Logging is no one's concern but the log's: a log that is full keeps what it
has, and statements run all the same.
-/
namespace RecordStore

inductive StatementLog where
  /-- Nothing is kept. -/
  | discard
  | keep (w : OctetWriter)
  deriving DecidableEq, Repr

namespace StatementLog

/-- Add a line. Its end is not tried after its text did not fit. -/
def add (log : StatementLog) (line : String) : StatementLog :=
  match log with
  | discard => discard
  | keep w =>
    let (fits, w) := w.write (Utf8.encode line)
    keep (if fits then (w.write (Utf8.encode "\n")).2 else w)

def octets : StatementLog → List UInt8
  | discard => []
  | keep w => w.written

def text (log : StatementLog) : String := Utf8.decode log.octets

/-- How a log shows itself: its contents stay hidden. -/
def debugText (_log : StatementLog) : String := "Logger \x7b .. \x7d"

end StatementLog
end RecordStore
