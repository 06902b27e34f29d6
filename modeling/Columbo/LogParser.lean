import Columbo.Events
import Columbo.LineHandler

/-!
# The parsers of simulator logs

What the parsers of the simulators have in common: the name and the identifier
that their events carry, and the time stamps and addresses of a line.
-/
namespace Columbo

structure LogParser where
  name : Bytes
  identifier : UInt64

namespace LogParser

def parseTimestamp : LineScan UInt64 := do
  trimL
  parseUintTrim 10

def parseAddress : LineScan UInt64 := parseUintTrim 16

/-- An event of this parser. -/
def event (parser : LogParser) (timestamp : UInt64) (kind : EventKind) : Event :=
  ⟨timestamp, parser.identifier, parser.name, kind⟩

end LogParser

end Columbo
